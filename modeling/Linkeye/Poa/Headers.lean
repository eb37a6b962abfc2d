import Linkeye.Poa.Snapshots

/-!
# Header verification of the poa engine

`verifyHeader`, `snapshot` and `verifySeal` of `consensus/poa/poa.go`.  A lookup
of a snapshot leaves it in the cache, so the checks pass the node on.
-/

set_option autoImplicit false

namespace Linkeye.Poa.Headers

open Common.Types Consensus.Fields Core.Blocks
open Dbft.Headers (num)
open Snapshots

structure Node where
  chain : Chain
  recents : Std.ExtTreeMap Hash Snapshot
  disk : Std.ExtTreeMap Hash Snapshot

def checkpointInterval : Nat := 1024

def storeSnapshot (node : Node) (s : Snapshot) : Node :=
  { node with disk := node.disk.insert s.hash s }

def addRecent (node : Node) (s : Snapshot) : Node :=
  { node with recents := node.recents.insert s.hash s }

def sub64 (a b : Nat) : Nat := (a + (2 ^ 64 - b % 2 ^ 64)) % 2 ^ 64

section
variable (e : Engine)

def verifyFields (h : Header) : Except HeaderError Unit :=
  let checkpoint := num h % e.epoch = 0
  let signersBytes := h.extra.length - extraVanity - extraSeal
  if e.now < h.time then .error .errFutureBlock
  else if checkpoint ∧ h.coinbase ≠ zeroAddress then .error .errInvalidCheckpointBeneficiary
  else if h.nonce ≠ nonceAuthVote ∧ h.nonce ≠ nonceDropVote then .error .errInvalidVote
  else if checkpoint ∧ h.nonce ≠ nonceDropVote then .error .errInvalidCheckpointVote
  else if h.extra.length < extraVanity then .error .errMissingVanity
  else if h.extra.length < extraVanity + extraSeal then .error .errMissingSignature
  else if ¬ checkpoint ∧ signersBytes ≠ 0 then .error .errExtraSigners
  else if checkpoint ∧ signersBytes % 20 ≠ 0 then .error .errInvalidCheckpointSigners
  else if h.mixDigest ≠ FixedBytes.zero 32 then .error .errInvalidMixDigest
  else if h.uncleHash ≠ rlpHash e.crypto (.list []) then .error .errInvalidUncleHash
  else .ok ()

/-! ## Looking up a snapshot -/

/-- `VerifyHeader` of the genesis header, whose number is zero. -/
def verifyGenesis (genesis : Header) : Except HeaderError Unit := do
  verifyFields e genesis
  verifyForkHashes e.crypto e.forks genesis false

/-- The addresses between vanity and seal. -/
def genesisSigners (genesis : Header) : List Address :=
  (List.range ((genesis.extra.length - extraVanity - extraSeal) / 20)).map fun i =>
    bytesToAddress ((genesis.extra.drop (extraVanity + i * 20)).take 20)

def genesisSnapshot (node : Node) : Node × Except HeaderError Snapshot :=
  let genesis := node.chain.genesis
  match verifyGenesis e genesis with
  | .error err => (node, .error err)
  | .ok _ =>
    let snap := newSnapshot 0 (genesis.hash e.crypto) (genesisSigners genesis)
    (storeSnapshot node snap, .ok snap)

/-- The header of the loop: the last of the explicit parents, or one of the chain. -/
def pickHeader (node : Node) (hash : Hash) (number : Nat) :
    List Header → Except HeaderError (Header × List Header)
  | parent :: parents =>
    if parent.hash e.crypto = hash ∧ num parent = number then .ok (parent, parents)
    else .error .errUnknownAncestor
  | [] =>
    match getHeader e.crypto node.chain hash number with
    | none => .error .errUnknownAncestor
    | some h => .ok (h, [])

/-- The loop of `snapshot`; `headers` are those gathered, the oldest first. -/
def gather (node : Node) (number : Nat) (hash : Hash) (parents headers : List Header) :
    Node × Except HeaderError (Snapshot × List Header) :=
  match node.recents[hash]? with
  | some snap => (node, .ok (snap, headers))
  | none =>
    match if number % checkpointInterval = 0 then node.disk[hash]? else none with
    | some snap => (node, .ok (snap, headers))
    | none =>
      match number with
      | 0 =>
        match genesisSnapshot e node with
        | (node, .error err) => (node, .error err)
        | (node, .ok snap) => (node, .ok (snap, headers))
      | below + 1 =>
        match pickHeader e node hash (below + 1) parents with
        | .error err => (node, .error err)
        | .ok (h, parents) => gather node below h.parentHash parents (h :: headers)

def snapshot (node : Node) (number : Nat) (hash : Hash) (parents : List Header) :
    Node × Except HeaderError Snapshot :=
  match gather e node number hash parents [] with
  | (node, .error err) => (node, .error err)
  | (node, .ok (snap, headers)) =>
    match snap.apply e headers with
    | .error err => (node, .error err)
    | .ok snap =>
      let node := addRecent node snap
      (if snap.number % checkpointInterval = 0 ∧ headers ≠ [] then storeSnapshot node snap
        else node, .ok snap)

/-! ## Verifying a header -/

/-- A recent signer is refused unless the block shifts it out.  The threshold is
unsigned, so it is a large number for the first blocks. -/
def signedRecently (snap : Snapshot) (number : Nat) (signer : Address) : Bool :=
  snap.recents.toList.any fun (seen, recent) =>
    decide (recent = signer ∧ sub64 number snap.limit < seen)

/-- The signer of the header, if the snapshot lets it sign. -/
def authorizedSigner (snap : Snapshot) (h : Header) : Except HeaderError Address :=
  match ecrecover e h with
  | .error err => .error err
  | .ok signer =>
    if signer ∉ snap.signers then .error .errUnauthorized
    else if signedRecently snap (num h) signer = true then .error .errUnauthorized
    else .ok signer

def diffMax : Nat := 5

/-- The parent is passed in and not looked at. -/
def calcDifficulty (snap : Snapshot) (signer : Address) (_parent : Option Header) : Nat :=
  let signerCount := snap.signers.size
  if signerCount = 0 then 0
  else
    let soffset := snap.signerIndex signer
    let noffset := (snap.number + 1) % 2 ^ 64 % signerCount
    let index := if soffset < noffset then noffset - soffset else signerCount - (soffset - noffset)
    index * diffMax / signerCount + 1000

def verifySeal (node : Node) (h : Header) (parents : List Header) :
    Node × Except HeaderError Unit :=
  if num h = 0 then (node, .error .errUnknownBlock)
  else
    match snapshot e node (num h - 1) h.parentHash parents with
    | (node, .error err) => (node, .error err)
    | (node, .ok snap) =>
      match authorizedSigner e snap h with
      | .error err => (node, .error err)
      | .ok _ => (node, if h.difficulty = 0 then .error .errInvalidDifficulty else .ok ())

def checkpointSigners (snap : Snapshot) : Bytes := snap.sortedSigners.flatMap FixedBytes.data

def verifyCascadingFields (node : Node) (h : Header) (parents : List Header) :
    Node × Except HeaderError Unit :=
  if num h = 0 then (node, .ok ())
  else
    match checkParent e.crypto e.period node.chain h parents with
    | .error err => (node, .error err)
    | .ok _ =>
      match snapshot e node (num h - 1) h.parentHash parents with
      | (node, .error err) => (node, .error err)
      | (node, .ok snap) =>
        if num h % e.epoch = 0 ∧
            (h.extra.take (h.extra.length - extraSeal)).drop extraVanity ≠
              checkpointSigners snap then
          (node, .error .errInvalidCheckpointSigners)
        else verifySeal e node h parents

/-- The step of `verifyHeader` for later blocks: signer and difficulty. -/
def verifyTurn (node : Node) (h : Header) (parents : List Header) :
    Node × Except HeaderError Unit :=
  if num h = 0 then (node, .ok ())
  else
    let parent := parentOf e.crypto node.chain h parents
    match snapshot e node (num h - 1) h.parentHash parents with
    | (node, .error err) => (node, .error err)
    | (node, .ok snap) =>
      match authorizedSigner e snap h with
      | .error err => (node, .error err)
      | .ok signer =>
        if calcDifficulty snap signer parent ≠ h.difficulty then
          (node, .error .errInvalidDifficulty)
        else (node, .ok ())

def verifyHeader (node : Node) (h : Header) (parents : List Header) :
    Node × Except HeaderError Unit :=
  match verifyFields e h with
  | .error err => (node, .error err)
  | .ok _ =>
    match verifyTurn e node h parents with
    | (node, .error err) => (node, .error err)
    | (node, .ok _) =>
      match verifyForkHashes e.crypto e.forks h false with
      | .error err => (node, .error err)
      | .ok _ => verifyCascadingFields e node h parents

end

/-! ## Lookups leave the chain alone -/

section
variable (e : Engine) (node : Node) (number : Nat) (hash : Hash)

theorem genesisSnapshot_chain : (genesisSnapshot e node).1.chain = node.chain := by
  rw [genesisSnapshot]
  split
  · rfl
  · rfl

theorem gather_chain (parents headers : List Header) :
    (gather e node number hash parents headers).1.chain = node.chain := by
  induction number generalizing hash parents headers with
  | zero =>
    rw [gather]
    have kept := genesisSnapshot_chain e node
    split
    · rfl
    · split
      · rfl
      · split
        · rename_i made
          rw [made] at kept
          exact kept
        · rename_i made
          rw [made] at kept
          exact kept
  | succ below ih =>
    rw [gather]
    split
    · rfl
    · split
      · rfl
      · split
        · rfl
        · exact ih _ _ _

theorem snapshot_chain (parents : List Header) :
    (snapshot e node number hash parents).1.chain = node.chain := by
  have kept := gather_chain e node number hash parents []
  rw [snapshot]
  split
  · rename_i gathered
    rw [gathered] at kept
    exact kept
  · rename_i gathered
    rw [gathered] at kept
    split
    · exact kept
    · dsimp only
      split
      · exact kept
      · exact kept

theorem verifyTurn_chain (h : Header) (parents : List Header) :
    (verifyTurn e node h parents).1.chain = node.chain := by
  have kept := snapshot_chain e node (num h - 1) h.parentHash parents
  rw [verifyTurn]
  split
  · rfl
  · dsimp only
    split
    · rename_i looked
      rw [looked] at kept
      exact kept
    · rename_i looked
      rw [looked] at kept
      split
      · exact kept
      · split
        · exact kept
        · exact kept

end

/-! ## Snapshots in the cache -/

section
variable {e : Engine} {node : Node} {number : Nat} {hash : Hash} {snap : Snapshot}

theorem snapshot_of_recent (held : node.recents[hash]? = some snap) (parents : List Header) :
    snapshot e node number hash parents = (addRecent node snap, .ok snap) := by
  have gathered : gather e node number hash parents [] = (node, .ok (snap, [])) := by
    rw [gather.eq_def, held]
  rw [snapshot, gathered]
  simp [Snapshot.apply]

theorem recents_addRecent (held : node.recents[hash]? = some snap) :
    (addRecent node snap).recents[hash]? = some snap := by
  rw [addRecent, Std.ExtTreeMap.getElem?_insert]
  split
  · rfl
  · exact held

/-- A header whose snapshot is in the cache is accepted if it passes its own
checks, is signed in turn and carries the signers where it must. -/
theorem accepted_of_recent {h parent : Header} {parents : List Header} {signer : Address}
    (fields : verifyFields e h = .ok ()) (later : num h ≠ 0)
    (held : node.recents[h.parentHash]? = some snap)
    (signed : authorizedSigner e snap h = .ok signer)
    (turn : calcDifficulty snap signer (parentOf e.crypto node.chain h parents) = h.difficulty)
    (weight : h.difficulty ≠ 0) (forks : verifyForkHashes e.crypto e.forks h false = .ok ())
    (known : checkParent e.crypto e.period node.chain h parents = .ok parent)
    (plain : num h % e.epoch ≠ 0) : (verifyHeader e node h parents).2 = .ok () := by
  have turned : verifyTurn e node h parents = (addRecent node snap, .ok ()) := by
    rw [verifyTurn, if_neg later]
    simp only [snapshot_of_recent held, signed, turn, ne_eq, not_true_eq_false, if_false]
  have sealed : (verifySeal e (addRecent (addRecent node snap) snap) h parents).2 = .ok () := by
    rw [verifySeal, if_neg later,
      snapshot_of_recent (recents_addRecent (recents_addRecent held))]
    simp only [signed, if_neg weight]
  rw [verifyHeader, fields]
  dsimp only
  rw [turned]
  dsimp only
  rw [forks]
  dsimp only
  rw [verifyCascadingFields, if_neg later]
  rw [show (addRecent node snap).chain = node.chain from rfl, known]
  dsimp only
  rw [snapshot_of_recent (recents_addRecent held)]
  dsimp only
  rw [if_neg (fun wrong => plain wrong.1)]
  exact sealed

end

end Linkeye.Poa.Headers
