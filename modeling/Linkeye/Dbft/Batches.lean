import Linkeye.Dbft.ValidatorList

/-!
# Batches of headers

`VerifyHeaders` checks the headers of a batch before any of its blocks has been
executed, with the earlier headers of the batch as explicit parents.  The result
compares its verdicts with those of a node that executes and writes each block
before it looks at the next header.
-/

set_option autoImplicit false

namespace Linkeye.Dbft.Batches

open Common.Types Common.Signature Core.Blocks Availability Chain Headers Recall Seals
open Validator ValidatorList Lib.Runs

section
variable (e : Engine)

/-- `VerifyHeaders`; `parents` are the headers before, the newest first. -/
def verifyHeaders (node : Node) (parents : List Header) :
    List Header → List (Except EngineError Unit)
  | [] => []
  | h :: rest =>
    (verifyHeader e node h parents).2 ::
      verifyHeaders (verifyHeader e node h parents).1 (h :: parents) rest

/-- The verdict on each header once the blocks before it have been written. -/
def verifyOneByOne (node : Node) : List NewBlock → List (Except EngineError Unit)
  | [] => []
  | b :: rest =>
    (verifyHeader e node b.header []).2 :: verifyOneByOne (nextNode e node (.extend b)) rest

def Agrees (node : Node) (blocks : List NewBlock) : Prop :=
  (verifyHeaders e node [] (blocks.map NewBlock.header)).map Except.isOk =
    (verifyOneByOne e node blocks).map Except.isOk

def Holds (node : Node) (h : Header) : Prop :=
  (newDposContextFromProto e.rootOf node.db h.dposContext).isSome = true

end

/-! ## Explicit parents are blocks on top of the chain -/

/-- The node as if the parents were blocks of its chain. -/
def onTop (parents : List Header) (node : Node) : Node :=
  { node with blocks := parents ++ node.blocks }

/-- The header is the child of the last explicit parent, whose context, if it can
be opened, has validators. -/
def Linked (e : Engine) (db : TrieDB) (parents : List Header) (h : Header) : Prop :=
  ∀ p ps, parents = p :: ps → p.hash e.crypto = h.parentHash ∧ num p = num h - 1 ∧ num p ≠ 0 ∧
    ∀ node : Node, node.db = db → snapshotOfHeader e node p (num p - 1) ≠ .ok none

section
variable (e : Engine) (node : Node) (number : Nat) (hash : Hash)

theorem gather_sameChain (parents headers : List Header) :
    SameChain node (gather e node number hash parents headers).1 := by
  have ended := gathers e node number hash parents headers
  generalize gather e node number hash parents headers = result at ended
  induction ended with
  | failed => exact SameChain.refl node
  | built => exact SameChain.refl node
  | further _ _ ih => exact ih
  | atOnce found =>
    cases found with
    | recent => exact SameChain.refl node
    | stored => exact SameChain.refl node
    | genesis _ _ _ made =>
      rw [(genesisSnapshot_again made).1]
      exact ⟨rfl, rfl, rfl⟩

theorem snapshot_sameChain (parents : List Header) :
    SameChain node (snapshot e node number hash parents).1 := by
  have kept := gather_sameChain e node number hash parents []
  rw [snapshot]
  split
  · rename_i gathered
    rw [gathered] at kept
    exact kept
  · rename_i gathered
    rw [gathered] at kept
    split
    · exact kept
    · split
      · exact kept.trans ⟨rfl, rfl, rfl⟩
      · exact kept.trans ⟨rfl, rfl, rfl⟩

theorem verifySigner_sameChain (h : Header) (parents : List Header) :
    SameChain node (verifySigner e node h parents).1 := by
  have kept := snapshot_sameChain e node (num h - 1) h.parentHash parents
  rw [verifySigner]
  split
  · exact SameChain.refl node
  · split
    · rename_i looked
      rw [looked] at kept
      exact kept
    · rename_i looked
      rw [looked] at kept
      split
      · exact kept
      · split
        · exact kept
        · exact kept

end

section
variable {e : Engine} {node : Node} {h : Header} {parents : List Header}

theorem getHeader_onTop (p : Header) (ps : List Header) :
    getHeader e (onTop (p :: ps) node) (p.hash e.crypto) (num p) = some p := by
  simp [getHeader, onTop, Node.headers]

section
variable (linked : Linked e node.db parents h)
include linked

theorem gather_onTop :
    gather e (onTop parents node) (num h - 1) h.parentHash [] [] =
      (onTop parents (gather e node (num h - 1) h.parentHash parents []).1,
        (gather e node (num h - 1) h.parentHash parents []).2) := by
  cases parents with
  | nil => rfl
  | cons p ps =>
    obtain ⟨hashed, numbered, later, listed⟩ := linked p ps rfl
    rw [← hashed, ← numbered]
    cases number : num p with
    | zero => exact absurd number later
    | succ below =>
      have found : getHeader e (onTop (p :: ps) node) (p.hash e.crypto) (num p) = some p :=
        getHeader_onTop p ps
      have own := listed node rfl
      rw [number] at found own
      have picked : pickHeader e (onTop (p :: ps) node) (p.hash e.crypto) (below + 1) [] =
          .ok (p, []) := by
        rw [pickHeader, found]
      have given : pickHeader e node (p.hash e.crypto) (below + 1) (p :: ps) = .ok (p, ps) := by
        rw [pickHeader, if_pos ⟨rfl, number⟩]
      have same : snapshotOfHeader e (onTop (p :: ps) node) p below =
          snapshotOfHeader e node p below := rfl
      have recents : (onTop (p :: ps) node).recents = node.recents := rfl
      have disk : loadSnapshot e (onTop (p :: ps) node) (p.hash e.crypto) =
          loadSnapshot e node (p.hash e.crypto) := rfl
      rw [gather, gather, recents, disk]
      cases node.recents[p.hash e.crypto]? with
      | some snap => rfl
      | none =>
        cases loadSnapshot e node (p.hash e.crypto) with
        | some snap => rfl
        | none =>
          rw [picked, given]
          dsimp only
          rw [same]
          cases made : snapshotOfHeader e node p below with
          | error err => rfl
          | ok result =>
            cases result with
            | some snap => rfl
            | none => exact absurd made own

theorem snapshot_onTop :
    snapshot e (onTop parents node) (num h - 1) h.parentHash [] =
      (onTop parents (snapshot e node (num h - 1) h.parentHash parents).1,
        (snapshot e node (num h - 1) h.parentHash parents).2) := by
  rw [snapshot, snapshot, gather_onTop linked]
  cases gather e node (num h - 1) h.parentHash parents [] with
  | mk after outcome =>
    cases outcome with
    | error err => rfl
    | ok found =>
      obtain ⟨snap, headers⟩ := found
      dsimp only
      cases apply e snap headers with
      | error err => rfl
      | ok snap =>
        dsimp only
        split
        · rfl
        · rfl

theorem verifySigner_onTop :
    verifySigner e (onTop parents node) h [] =
      (onTop parents (verifySigner e node h parents).1, (verifySigner e node h parents).2) := by
  rw [verifySigner, verifySigner]
  split
  · rfl
  · rw [snapshot_onTop linked]
    cases snapshot e node (num h - 1) h.parentHash parents with
    | mk after outcome =>
      cases outcome with
      | error err => rfl
      | ok snap =>
        cases ecrecover e h with
        | error err => rfl
        | ok signer =>
          dsimp only
          split
          · rfl
          · rfl

theorem verifySealsOfParent_onTop :
    verifySealsOfParent e (onTop parents node) h [] =
      (onTop parents (verifySealsOfParent e node h parents).1,
        (verifySealsOfParent e node h parents).2) := by
  rw [verifySealsOfParent, verifySealsOfParent]
  split
  · rfl
  · rw [snapshot_onTop linked]
    cases snapshot e node (num h - 1) h.parentHash parents with
    | mk after outcome =>
      cases outcome with
      | error err => rfl
      | ok snap =>
        dsimp only
        cases verifyCommittedSeals e.crypto snap.valSet h with
        | none => rfl
        | some err => rfl

theorem parentOf_onTop :
    parentOf e (onTop parents node) h [] = parentOf e node h parents := by
  cases parents with
  | nil => rfl
  | cons p ps =>
    obtain ⟨hashed, numbered, _, _⟩ := linked p ps rfl
    rw [parentOf, parentOf, ← hashed, ← numbered]
    exact getHeader_onTop p ps

/-- Checking a header with explicit parents is checking it on a longer chain. -/
theorem verifyHeader_onTop :
    verifyHeader e (onTop parents node) h [] =
      (onTop parents (verifyHeader e node h parents).1, (verifyHeader e node h parents).2) := by
  rw [verifyHeader, verifyHeader]
  cases verifyStandalone e h with
  | error err => rfl
  | ok _ =>
    dsimp only
    rw [verifyCascadingFields, verifyCascadingFields]
    split
    · rfl
    · rw [parentOf_onTop linked]
      cases parentOf e node h parents with
      | none => rfl
      | some parent =>
        dsimp only
        split
        · rfl
        · split
          · rfl
          · rw [snapshot_onTop linked]
            have kept := snapshot_sameChain e node (num h - 1) h.parentHash parents
            generalize snapshot e node (num h - 1) h.parentHash parents = looked at kept
            obtain ⟨middle, outcome⟩ := looked
            cases outcome with
            | error err => rfl
            | ok snap =>
              have signer := verifySigner_sameChain e middle h parents
              have db : Linked e middle.db parents h := by
                rw [kept.db]
                exact linked
              dsimp only
              rw [verifySigner_onTop db]
              generalize verifySigner e middle h parents = verdict at signer
              obtain ⟨last, outcome⟩ := verdict
              cases outcome with
              | error err => rfl
              | ok _ =>
                dsimp only
                rw [verifySealsOfParent_onTop]
                rw [signer.db]
                exact db

end

end

/-! ## Verdicts depend on the validators of the head -/

section
variable {e : Engine} {node : Node} {h : Header}

theorem countSeals_perm (crypto : Crypto) (proposalSeal : Bytes) (seals : List Bytes)
    {vs ws : ValidatorSet} (perm : vs.validators.Perm ws.validators) :
    countSeals crypto proposalSeal seals vs = countSeals crypto proposalSeal seals ws := by
  induction seals generalizing vs ws with
  | nil => rfl
  | cons first rest ih =>
    rw [countSeals, countSeals]
    cases getSignatureAddress crypto proposalSeal first with
    | none => rfl
    | some addr =>
      dsimp only
      rw [ValidatorSet.removeValidator, ValidatorSet.removeValidator]
      by_cases member : addr ∈ vs.validators
      · have smaller : ({ vs with validators := vs.validators.erase addr } :
            ValidatorSet).validators.Perm
            ({ ws with validators := ws.validators.erase addr } : ValidatorSet).validators :=
          perm.erase addr
        rw [if_pos member, if_pos (perm.mem_iff.mp member)]
        rw [ih smaller]
      · rw [if_neg member, if_neg (fun other => member (perm.mem_iff.mpr other))]
        rfl

theorem verifyCommittedSeals_perm (crypto : Crypto) (h : Header) {vs ws : ValidatorSet}
    (perm : vs.validators.Perm ws.validators) :
    verifyCommittedSeals crypto vs h = verifyCommittedSeals crypto ws h := by
  have copies : (vs.copy crypto.keccak256).validators.Perm (ws.copy crypto.keccak256).validators :=
    ((sortValidators_perm _ vs.validators).trans perm).trans
      (sortValidators_perm _ ws.validators).symm
  have sizes : ∀ n, vs.exceedsTwoF n = ws.exceedsTwoF n := by
    intro n
    have same : vs.size = ws.size := perm.length_eq
    rw [ValidatorSet.exceedsTwoF, ValidatorSet.exceedsTwoF, ValidatorSet.f, ValidatorSet.f, same]
  rw [verifyCommittedSeals, verifyCommittedSeals]
  simp only [countSeals_perm crypto _ _ copies, sizes]

/-- What `verifyHeader` asks of a child of the head, apart from its link. -/
structure Passes (e : Engine) (head : Header) (validators : List Address) (h : Header) : Prop where
  standalone : verifyStandalone e h = .ok ()
  time : earliest e head ≤ h.time % 2 ^ 64
  signed : ∃ signer ∈ validators, ecrecover e h = .ok signer
  seals : ∃ valSet, Lists valSet validators ∧ verifyCommittedSeals e.crypto valSet h = none

/-- A child of the head is judged by the validators that the head stores. -/
theorem accepted_iff (inv : ChainInv e node) (number : num h = num node.head + 1)
    (own : h.parentHash = node.head.hash e.crypto) :
    (verifyHeader e node h []).2 = .ok () ↔
      (node.head = node.genesis ∨ SignerStays e node node.head) ∧
        ∃ validators, storedValidators e node node.head = some validators ∧
          Passes e node.head validators h := by
  have lookup : parentFor e node [] h.parentHash (num node.head) = some node.head := by
    rw [own]
    exact inv.getHeader_eq (head_mem_headers node)
  constructor
  · intro accepted
    obtain ⟨standalone, parent, snap, signer, known, _, _, time, found, signed, member, seals⟩ :=
      (accepted_iff_sealed number).mp accepted
    cases lookup.symm.trans known
    rw [own] at found
    rcases lookup_head inv with ⟨err, failed, _⟩ | ⟨other, looked, described⟩
    · rw [failed] at found
      cases found
    · rw [looked] at found
      cases found
      obtain ⟨validators, stored, listed⟩ := described.members
      refine ⟨described.signed, validators, stored, standalone, time, ⟨signer, ?_, signed⟩, ?_⟩
      · exact (listed.1 signer).mp member
      · exact ⟨_, listed, seals⟩
  · rintro ⟨stays, validators, stored, passes⟩
    rcases lookup_head inv with ⟨err, _, lost⟩ | ⟨snap, looked, described⟩
    · rcases stays with genesis | stays
      · exact absurd (by rw [genesis, inv.genesisNumber]) lost.later
      · exact absurd stays lost.leaves
    · obtain ⟨list, same, listed⟩ := described.members
      rw [stored] at same
      cases same
      obtain ⟨signer, member, signed⟩ := passes.signed
      obtain ⟨valSet, lists, seals⟩ := passes.seals
      rw [← own] at looked
      refine (accepted_iff_sealed number).mpr ⟨passes.standalone, _, snap, signer, lookup, rfl,
        own.symm, passes.time, looked, signed, (listed.1 signer).mpr member, ?_⟩
      have arranged : snap.valSet.validators.Perm valSet.validators := by
        rw [List.perm_ext_iff_of_nodup listed.2 lists.2]
        exact fun a => (listed.1 a).trans (lists.1 a).symm
      rw [verifyCommittedSeals_perm e.crypto h arranged]
      exact seals

end

/-! ## The batch and the chain side by side -/

section
variable {e : Engine}

/-- The node that checks a batch, with the headers checked so far, and the node
that has written their blocks. -/
structure Aligned (e : Engine) (checking : Node) (parents : List Header) (writing : Node) :
    Prop where
  ahead : ChainInv e (onTop parents checking)
  written : ChainInv e writing
  genesis : writing.genesis = checking.genesis
  blocks : writing.blocks = parents ++ checking.blocks
  keeps : Keeps e checking.db writing.db

variable {checking writing : Node} {parents : List Header}

section
variable (aligned : Aligned e checking parents writing)
include aligned

theorem Aligned.head :
    (onTop parents checking).head = writing.head := by
  rw [Node.head, Node.head, aligned.blocks, aligned.genesis]
  rfl

theorem Aligned.stored :
    storedValidators e writing writing.head =
      storedValidators e (onTop parents checking) writing.head := by
  obtain ⟨validators, stored⟩ := aligned.ahead.stored _ (head_mem_headers _)
  rw [aligned.head] at stored
  obtain ⟨dc, opened, read⟩ := Option.bind_eq_some_iff.mp stored
  rw [stored, storedValidators, aligned.keeps _ _ opened]
  exact read

theorem Aligned.linked {h : Header}
    (number : num h = num writing.head + 1) (own : h.parentHash = writing.head.hash e.crypto) :
    Linked e checking.db parents h := by
  rintro p ps rfl
  have head : writing.head = p := by
    rw [← aligned.head]
    rfl
  have member : p ∈ (onTop (p :: ps) checking).headers := by simp [onTop, Node.headers]
  rw [head] at number own
  refine ⟨own.symm, by omega, aligned.ahead.blockNumber p (by simp [onTop]), ?_⟩
  intro node db
  obtain ⟨snap, _, made, _⟩ := aligned.ahead.snapshotOfHeader member (num p - 1)
  have same : snapshotOfHeader e node p (num p - 1) =
      snapshotOfHeader e (onTop (p :: ps) checking) p (num p - 1) := by
    simp only [snapshotOfHeader, onTop, db]
  rw [same, made]
  simp

theorem Aligned.verdict {h : Header}
    (number : num h = num writing.head + 1) (own : h.parentHash = writing.head.hash e.crypto) :
    (verifyHeader e checking h parents).2 = .ok () ↔ (verifyHeader e writing h []).2 = .ok () := by
  have ahead := accepted_iff aligned.ahead (by rw [aligned.head]; exact number)
    (by rw [aligned.head]; exact own)
  rw [verifyHeader_onTop (aligned.linked number own)] at ahead
  rw [ahead, accepted_iff aligned.written number own, aligned.head]
  have genesis : (onTop parents checking).genesis = writing.genesis := aligned.genesis.symm
  simp only [SignerStays, aligned.stored, genesis]

/-- Checking a header changes the caches of the checking node only. -/
theorem Aligned.checked {h : Header}
    (number : num h = num writing.head + 1) (own : h.parentHash = writing.head.hash e.crypto) :
    ChainInv e (onTop parents (verifyHeader e checking h parents).1) ∧
      SameChain checking (verifyHeader e checking h parents).1 := by
  have later : num h ≠ 0 := by omega
  obtain ⟨kept, same, _⟩ := aligned.ahead.verifyHeader h later
  rw [verifyHeader_onTop (aligned.linked number own)] at kept same
  refine ⟨kept, same.genesis, ?_, same.db⟩
  exact List.append_cancel_left same.blocks

theorem Aligned.fresh {after : Node} {b : NewBlock}
    (same : SameChain checking after) (fresh : NoCollision e writing (.extend b)) :
    ∀ other ∈ (onTop parents after).headers, other.hash e.crypto ≠ b.header.hash e.crypto := by
  have headers : (onTop parents after).headers = writing.headers := by
    rw [Node.headers, Node.headers, aligned.blocks, aligned.genesis, ← same.blocks, ← same.genesis]
    rfl
  rw [headers]
  exact fresh.1

/-- A block whose tries the checking node has keeps the two nodes side by side. -/
theorem Aligned.step {b : NewBlock}
    (accepted : Accepted e writing b) (fresh : NoCollision e writing (.extend b))
    (held : Holds e checking b.header) :
    Aligned e (verifyHeader e checking b.header parents).1 (b.header :: parents)
      (nextNode e writing (.extend b)) := by
  obtain ⟨dc, final, roots⟩ := accepted.finalized
  obtain ⟨kept, same⟩ := aligned.checked accepted.number accepted.parentHash
  have written := chainInv_extend aligned.written accepted fresh
  have later : num b.header ≠ 0 := by
    rw [accepted.number]
    omega
  obtain ⟨_, sameWriting, _⟩ := aligned.written.verifyHeader b.header later
  rw [nextNode_extend final] at written ⊢
  have own := fresh.2 dc final
  have keeps : Keeps e checking.db (commitTo e.rootOf writing.db dc) :=
    fun p known opened => keeps_commitTo own p known (aligned.keeps p known opened)
  -- the tries held are those that are written
  obtain ⟨known, opened⟩ := Option.isSome_iff_exists.mp held
  have read : known = dc := by
    have reopened := keeps _ _ opened
    rw [roots, fromProto_commitTo_self own] at reopened
    exact (Option.some.inj reopened).symm
  subst read
  obtain ⟨validators, elected, _⟩ := finalContext_validators final
  have stored (node : Node) (opens : newDposContextFromProto e.rootOf node.db
      b.header.dposContext = some known) : storedValidators e node b.header = some validators := by
    rw [storedValidators, opens]
    exact elected
  have committed : (grow e (verifyHeader e writing b.header []).1 b.header known).db =
      commitTo e.rootOf writing.db known := by
    rw [grow, sameWriting.db]
  refine ⟨?_, written, ?_, ?_, ?_⟩
  · refine chainInv_push kept later (aligned.fresh same fresh) (fun _ _ opens => opens)
      (stored _ ?_) ?_ ?_
    · rw [same.db]
      exact opened
    · exact written.extra b.header (head_mem_headers _)
    · intro ordinary
      obtain ⟨signer, list, recovered, found, member⟩ :=
        written.signed (List.cons_ne_nil _ _) ordinary
      have current := stored (grow e (verifyHeader e writing b.header []).1 b.header known)
        (by rw [committed]; exact keeps _ _ opened)
      cases current.symm.trans found
      exact ⟨signer, recovered, member⟩
  · exact sameWriting.genesis.trans (aligned.genesis.trans same.genesis.symm)
  · change b.header :: (verifyHeader e writing b.header []).1.blocks =
      b.header :: (parents ++ (verifyHeader e checking b.header parents).1.blocks)
    rw [sameWriting.blocks, same.blocks, aligned.blocks]
  · rw [same.db, committed]
    exact keeps

theorem Aligned.missing {b : NewBlock}
    (accepted : Accepted e writing b) (fresh : NoCollision e writing (.extend b))
    (missing : ¬ Holds e checking b.header) {h : Header} (number : num h = num b.header + 1)
    (own : h.parentHash = b.header.hash e.crypto) :
    (verifyHeader e (verifyHeader e checking b.header parents).1 h (b.header :: parents)).2 ≠
      .ok () := by
  obtain ⟨kept, same⟩ := aligned.checked accepted.number accepted.parentHash
  have unused := aligned.fresh same fresh
  generalize (verifyHeader e checking b.header parents).1 = after at kept same unused ⊢
  have recents : after.recents[b.header.hash e.crypto]? = none := by
    cases cached : after.recents[b.header.hash e.crypto]? with
    | none => rfl
    | some snap =>
      obtain ⟨other, member, hashed, _⟩ := kept.recents _ snap cached
      exact absurd hashed (unused other member)
  have disk : loadSnapshot e after (b.header.hash e.crypto) = none := by
    cases cached : loadSnapshot e after (b.header.hash e.crypto) with
    | none => rfl
    | some snap =>
      obtain ⟨other, member, hashed, _⟩ := kept.disk _ snap cached
      exact absurd hashed (unused other member)
  have closed : newDposContextFromProto e.rootOf after.db b.header.dposContext = none := by
    rw [same.db, ← Option.not_isSome_iff_eq_none]
    exact missing
  have failed : gather e after (num b.header) (b.header.hash e.crypto) (b.header :: parents) [] =
      (after, .error .missingTrie) := by
    rw [accepted.number, gather, recents]
    simp only [disk]
    rw [pickHeader, if_pos ⟨rfl, accepted.number⟩]
    simp only [snapshotOfHeader, closed]
  intro passed
  obtain ⟨_, _, snap, _, _, _, _, _, found, _⟩ := (accepted_iff_sealed number).mp passed
  rw [own, snapshot, failed] at found
  cases found

end

/-- A batch of valid blocks is accepted as a whole exactly if the tries of all
but the last are there before the batch. -/
theorem all_accepted_iff (blocks : List NewBlock) {checking writing : Node} {parents : List Header}
    (aligned : Aligned e checking parents writing)
    (valid : Admits (chainSystem e) (NoCollision e) writing (blocks.map .extend)) :
    (∀ verdict ∈ verifyHeaders e checking parents (blocks.map NewBlock.header), verdict = .ok ()) ↔
      ∀ b ∈ blocks.dropLast, Holds e checking b.header := by
  induction blocks generalizing checking writing parents with
  | nil => simp [verifyHeaders]
  | cons b rest ih =>
    obtain ⟨accepted, fresh, later⟩ := valid
    have first := (aligned.verdict accepted.number accepted.parentHash).mpr accepted.verified
    have same := (aligned.checked accepted.number accepted.parentHash).2
    rw [List.map_cons, verifyHeaders, List.forall_mem_cons]
    cases rest with
    | nil => simp [verifyHeaders, first]
    | cons second others =>
      rw [List.dropLast_cons_cons, List.forall_mem_cons]
      by_cases held : Holds e checking b.header
      · have tail := ih (aligned.step accepted fresh held) later
        have holds (other : NewBlock) : Holds e (verifyHeader e checking b.header parents).1
            other.header ↔ Holds e checking other.header := by
          rw [Holds, Holds, same.db]
        rw [tail]
        simp only [first, held, holds, true_and]
      · have refused := aligned.missing accepted fresh held later.1.number later.1.parentHash
        constructor
        · rintro ⟨_, tail⟩
          exact absurd (tail _ List.mem_cons_self) refused
        · rintro ⟨held', _⟩
          exact absurd held' held

end

/-! ## The result -/

section
variable {e : Engine} {node : Node}

theorem length_verifyHeaders (headers : List Header) (node : Node) (parents : List Header) :
    (verifyHeaders e node parents headers).length = headers.length := by
  induction headers generalizing node parents with
  | nil => rfl
  | cons h rest ih => rw [verifyHeaders, List.length_cons, List.length_cons, ih]

theorem verifyOneByOne_valid (blocks : List NewBlock) {node : Node}
    (valid : Admits (chainSystem e) (NoCollision e) node (blocks.map .extend)) :
    verifyOneByOne e node blocks = List.replicate blocks.length (.ok ()) := by
  induction blocks generalizing node with
  | nil => rfl
  | cons b rest ih =>
    obtain ⟨accepted, _, later⟩ := valid
    have tail : verifyOneByOne e (nextNode e node (.extend b)) rest =
        List.replicate rest.length (.ok ()) := ih later
    rw [verifyOneByOne, tail, accepted.verified]
    rfl

theorem isOk_iff (verdict : Except EngineError Unit) : verdict.isOk = true ↔ verdict = .ok () := by
  cases verdict with
  | error | ok => simp [Except.isOk, Except.toBool]

/-- The batch is judged as its blocks are one by one exactly if the tries of all
its blocks but the last are in the database before the batch. -/
theorem batch_agrees_iff (reached : Reachable (chainSystem e) (NoCollision e) node)
    {blocks : List NewBlock}
    (valid : Admits (chainSystem e) (NoCollision e) node (blocks.map .extend)) :
    Agrees e node blocks ↔ ∀ b ∈ blocks.dropLast, Holds e node b.header := by
  have inv := chainInv_of_reachable reached
  have aligned : Aligned e node [] node := ⟨inv, inv, rfl, rfl, fun _ _ opened => opened⟩
  rw [← all_accepted_iff blocks aligned valid, Agrees, verifyOneByOne_valid blocks valid,
    List.map_replicate, List.eq_replicate_iff]
  simp only [List.length_map, length_verifyHeaders, true_and, List.mem_map, forall_exists_index,
    and_imp, forall_apply_eq_imp_iff₂]
  constructor
  · intro accepted verdict member
    exact (isOk_iff verdict).mp (accepted verdict member)
  · intro accepted verdict member
    exact (isOk_iff verdict).mpr (accepted verdict member)

end

/-! ### Two batches on top of genesis -/

def quietBlock : NewBlock := blockOn genesisNode (bytesToAddress [1]) [] (richOutsider 0)

def quietNode : Node := nextNode twoBlockEpochs genesisNode (.extend quietBlock)

def afterQuiet : NewBlock := blockOn quietNode (bytesToAddress [2]) [] (richOutsider 0)

theorem admits_pair {first second : NewBlock}
    (checked : acceptedCheck twoBlockEpochs genesisNode first = true)
    (checked' : acceptedCheck twoBlockEpochs
      (nextNode twoBlockEpochs genesisNode (.extend first)) second = true) :
    Admits (chainSystem twoBlockEpochs) (NoCollision twoBlockEpochs) genesisNode
      ([first, second].map .extend) := by
  obtain ⟨accepted, fresh⟩ := acceptedCheck_sound checked
  obtain ⟨accepted', fresh'⟩ := acceptedCheck_sound checked'
  exact ⟨accepted, fresh, accepted', fresh', trivial⟩

theorem batch_agrees_quiet : Agrees twoBlockEpochs genesisNode [quietBlock, afterQuiet] := by
  have first : acceptedCheck twoBlockEpochs genesisNode quietBlock = true := by decide +kernel
  have second : acceptedCheck twoBlockEpochs quietNode afterQuiet = true := by decide +kernel
  rw [batch_agrees_iff (.init genesisNode_fresh) (admits_pair first second)]
  intro b member
  have same : b = quietBlock := List.mem_singleton.mp member
  rw [same, Holds]
  decide +kernel

/-- Block 1 registers a candidate.  Its child is refused in a batch, as the new
candidate trie is not written yet, and accepted once block 1 is. -/
theorem batch_refuses_child_of_registration :
    Admits (chainSystem twoBlockEpochs) (NoCollision twoBlockEpochs) genesisNode
        ([outsiderEnters, electionBlock].map .extend) ∧
      verifyHeaders twoBlockEpochs genesisNode [] [outsiderEnters.header, electionBlock.header] =
        [.ok (), .error .missingTrie] ∧
      verifyOneByOne twoBlockEpochs genesisNode [outsiderEnters, electionBlock] =
        [.ok (), .ok ()] := by
  have valid := admits_pair outsiderEnters_accepted electionBlock_accepted
  refine ⟨valid, ?_, verifyOneByOne_valid [outsiderEnters, electionBlock] valid⟩
  decide +kernel

end Linkeye.Dbft.Batches
