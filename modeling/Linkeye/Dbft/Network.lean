import Linkeye.Dbft.Authenticity
import Linkeye.Dbft.Votes

/-!
# Agreement

The validators as cores and the network as everything the correct ones have
sent: any of it may be delivered to any core at any time, any number of times,
and a faulty validator may send whatever carries its own address.
-/

set_option autoImplicit false

namespace Linkeye.Dbft.Network

open Common.Types Common.Signature Rlp.Encode Lib.Runs Lib.Quorum Dbft.Types Round Validator Handlers
open Moves Authenticity CoreRuns Invariants Votes

/-- `3F + 1` validators, at most `F` of them faulty. -/
structure Membership where
  validators : List Address
  faulty : Finset Address
  bound : Nat
  distinct : validators.Nodup
  size : validators.length = 3 * bound + 1
  few : faulty.card ≤ bound

def Membership.Correct (net : Membership) (a : Address) : Prop :=
  a ∈ net.validators ∧ a ∉ net.faulty

section Network
variable {P : Type} [Proposal P]

abbrev Nodes (P : Type) := Address → Core P

variable {net : Membership} {nodes later : Nodes P} {sequence : Nat} {digest : Hash} {a : Address}

/-- A message in the name of a correct validator was sent by it. -/
def Authentic (net : Membership) (nodes : Nodes P) (m : Message) : Prop :=
  net.Correct m.address → ∃ sent, sent.msg = m ∧ .broadcast sent ∈ (nodes m.address).outputs

/-- The backend of a correct validator: the same validators at every height, no
bad block, no failing insertion. -/
structure NodeBackend (net : Membership) (be : Backend P) : Prop where
  calm : Calm be
  validators : ∀ p, (be.validators p).validators.Perm net.validators

def Delivered (net : Membership) (nodes : Nodes P) : Event P → Prop
  | .message payload => ∀ m, Message.ofPayload payload = some m → Authentic net nodes m
  | _ => True

def networkSystem (net : Membership) : System (Nodes P) (Address × Backend P × Event P) where
  init := fun nodes => ∀ a, net.Correct a →
    ∃ be, NodeBackend net be ∧ start be a = some (nodes a)
  enabled := fun nodes step => net.Correct step.1 ∧ NodeBackend net step.2.1 ∧
    Posted (nodes step.1) step.2.2 ∧ Delivered net nodes step.2.2
  next := fun nodes step =>
    Function.update nodes step.1 (handleEvent step.2.1 (nodes step.1) step.2.2)

/-- A correct validator has called `backend.Commit` for the block at the sequence. -/
def Decided (net : Membership) (nodes : Nodes P) (sequence : Nat) (digest : Hash) : Prop :=
  ∃ a committed, net.Correct a ∧ .commit committed ∈ (nodes a).outputs ∧
    committed.view.sequence = sequence ∧ Proposal.hash committed.proposal = digest

def Agreement (net : Membership) (nodes : Nodes P) : Prop :=
  ∀ sequence first second, Decided net nodes sequence first → Decided net nodes sequence second →
    first = second

/-- An old PRE-PREPARE is answered only for a block that some correct validator
has committed at the sequence of its view. -/
def OldReplyDecided (net : Membership) (nodes : Nodes P)
    (step : Address × Backend P × Event P) : Prop :=
  ∀ pp, oldReply step.2.1 (nodes step.1) step.2.2 = some pp →
    Decided net nodes pp.view.sequence (Proposal.hash pp.proposal)

/-! ## Growing histories -/

def Extends (nodes later : Nodes P) : Prop :=
  ∀ a output, output ∈ (nodes a).outputs → output ∈ (later a).outputs

omit [Proposal P] in
theorem Authentic.mono (grows : Extends nodes later) {m : Message}
    (authentic : Authentic net nodes m) : Authentic net later m := by
  intro correct
  obtain ⟨sent, same, member⟩ := authentic correct
  exact ⟨sent, same, grows _ _ member⟩

theorem Decided.mono (grows : Extends nodes later) (decided : Decided net nodes sequence digest) :
    Decided net later sequence digest := by
  obtain ⟨a, committed, correct, member, same⟩ := decided
  exact ⟨a, committed, correct, grows _ _ member, same⟩

omit [Proposal P] in
theorem extends_update {d : Core P} (grows : ∀ output ∈ (nodes a).outputs, output ∈ d.outputs) :
    Extends nodes (Function.update nodes a d) := by
  intro b output member
  by_cases same : b = a
  · subst same
    rw [Function.update_self]
    exact grows output member
  · rw [Function.update_of_ne same]
    exact member

/-! ## The invariant -/

/-- More than `2F` validators, of whom all correct ones voted. -/
def Backed (net : Membership) (nodes : Nodes P) (sequence : Nat) (digest : Hash) : Prop :=
  ∃ quorum : Finset Address, quorum ⊆ net.validators.toFinset ∧
    2 * net.bound < quorum.card ∧
    ∀ a ∈ quorum, a ∉ net.faulty → VotedFor (nodes a) sequence digest

structure NodeInv (net : Membership) (nodes : Nodes P) (a : Address) : Prop where
  address : (nodes a).address = a
  validators : (nodes a).valSet.validators.Perm net.validators
  votes : VoteInv (nodes a)
  core : CoreInv (Authentic net nodes) (fun _ => True) (nodes a)
  queued : ∀ src m, Queued (nodes a) src m → Authentic net nodes m
  sent : ∀ sent, .broadcast sent ∈ (nodes a).outputs → sent.msg.address = a ∧
    (sent.msg.code = msgCommit → ∃ sub, sent.msg.decodeSubject = some sub ∧
      (IsVote sent sub ∨ Decided net nodes sub.view.sequence sub.digest))
  backed : ∀ committed, .commit committed ∈ (nodes a).outputs →
    Backed net nodes committed.view.sequence (Proposal.hash committed.proposal)

def NetInv (net : Membership) (nodes : Nodes P) : Prop :=
  ∀ a, net.Correct a → NodeInv net nodes a

omit [Proposal P] in
theorem Backed.mono (grows : Extends nodes later) (backed : Backed net nodes sequence digest) :
    Backed net later sequence digest := by
  obtain ⟨quorum, members, enough, voted⟩ := backed
  refine ⟨quorum, members, enough, fun a member correct => ?_⟩
  obtain ⟨sent, sub, broadcast, vote⟩ := voted a member correct
  exact ⟨sent, sub, grows _ _ broadcast, vote⟩

theorem NodeInv.sent_mono (inv : NodeInv net nodes a) (grows : Extends nodes later) (sent : Sent)
    (member : .broadcast sent ∈ (nodes a).outputs) : sent.msg.address = a ∧
      (sent.msg.code = msgCommit → ∃ sub, sent.msg.decodeSubject = some sub ∧
        (IsVote sent sub ∨ Decided net later sub.view.sequence sub.digest)) := by
  obtain ⟨sender, commits⟩ := inv.sent sent member
  refine ⟨sender, fun code => ?_⟩
  obtain ⟨sub, decoded, vote | decided⟩ := commits code
  · exact ⟨sub, decoded, Or.inl vote⟩
  · exact ⟨sub, decoded, Or.inr (decided.mono grows)⟩

theorem NodeInv.mono (inv : NodeInv net nodes a) (grows : Extends nodes later)
    (same : later a = nodes a) :
    NodeInv net later a where
  address := by rw [same]; exact inv.address
  validators := by rw [same]; exact inv.validators
  votes := by rw [same]; exact inv.votes
  core := by rw [same]; exact inv.core.mono fun _ authentic => authentic.mono grows
  queued := by
    rw [same]
    intro src m queued
    exact (inv.queued src m queued).mono grows
  sent := by
    rw [same]
    exact inv.sent_mono grows
  backed := by
    rw [same]
    intro committed member
    exact (inv.backed committed member).mono grows

theorem NetInv.backed (inv : NetInv net nodes) (decided : Decided net nodes sequence digest) :
    Backed net nodes sequence digest := by
  obtain ⟨a, committed, correct, member, rfl, rfl⟩ := decided
  exact (inv a correct).backed committed member

/-- Two quorums share a correct validator, which votes once. -/
theorem NetInv.agreement (inv : NetInv net nodes) :
    Agreement net nodes := by
  intro sequence first second decidedFirst decidedSecond
  obtain ⟨left, leftMembers, leftEnough, leftVoted⟩ := inv.backed decidedFirst
  obtain ⟨right, rightMembers, rightEnough, rightVoted⟩ := inv.backed decidedSecond
  have population : net.validators.toFinset.card = 3 * net.bound + 1 := by
    rw [List.toFinset_card_of_nodup net.distinct, net.size]
  have few := net.few
  obtain ⟨a, inLeft, inRight, correct⟩ :=
    exists_correct_shared net.faulty leftMembers rightMembers (by omega)
  have member : a ∈ net.validators := List.mem_toFinset.mp (leftMembers inLeft)
  exact (inv a ⟨member, correct⟩).votes.unique sequence first second
    (leftVoted a inLeft correct) (rightVoted a inRight correct)

/-- The COMMIT messages a correct core has counted make its proposal backed. -/
theorem NetInv.backed_of_quorum (inv : NetInv net nodes) (correct : net.Correct a) {proposal : P}
    (held : (nodes a).current.proposal = some proposal)
    (quorum : (nodes a).valSet.exceedsTwoF (nodes a).current.commits.size = true) :
    Backed net nodes (nodes a).current.sequence (Proposal.hash proposal) := by
  have node := inv a correct
  obtain ⟨pp, stored, rfl⟩ := Option.map_eq_some_iff.mp held
  have subject : (nodes a).current.subject =
      some ⟨(nodes a).current.view, Proposal.hash pp.proposal⟩ := by
    rw [RoundState.subject, stored]
    rfl
  have counted : ∀ x ∈ (nodes a).current.commits.senders, x ∈ net.validators ∧
      (x ∉ net.faulty → VotedFor (nodes x) (nodes a).current.sequence (Proposal.hash pp.proposal) ∨
        Decided net nodes (nodes a).current.sequence (Proposal.hash pp.proposal)) := by
    intro x sender
    obtain ⟨m, found⟩ := (MessageSet.mem_senders _ x).mp sender
    obtain ⟨named, listed⟩ := (nodes a).current.commits.verified x m found
    rw [node.core.members, node.validators.mem_iff] at listed
    refine ⟨listed, fun honest => ?_⟩
    obtain ⟨code, sub, decoded, same, authentic⟩ := node.core.commits x m found
    rw [subject] at same
    cases same
    obtain ⟨sent, rfl, member⟩ := authentic (named ▸ ⟨listed, honest⟩)
    rw [named] at member
    obtain ⟨_, commits⟩ := (inv x ⟨listed, honest⟩).sent sent member
    obtain ⟨own, decodedOwn, vote | decided⟩ := commits code
    · rw [decoded] at decodedOwn
      cases decodedOwn
      exact Or.inl ⟨sent, _, member, vote, rfl, rfl⟩
    · rw [decoded] at decodedOwn
      cases decodedOwn
      exact Or.inr decided
  by_cases known : Decided net nodes (nodes a).current.sequence (Proposal.hash pp.proposal)
  · exact inv.backed known
  · refine ⟨(nodes a).current.commits.senders, ?_, ?_, ?_⟩
    · intro x sender
      exact List.mem_toFinset.mpr (counted x sender).1
    · rw [MessageSet.card_senders]
      rw [ValidatorSet.exceedsTwoF_iff, ValidatorSet.f, ValidatorSet.size,
        node.validators.length_eq, net.size] at quorum
      omega
    · intro x sender honest
      exact ((counted x sender).2 honest).resolve_right known

theorem NetInv.move {d : Core P} {ctx : Context P} (inv : NetInv net nodes)
    (correct : net.Correct a) (move : Move ctx (nodes a) d) (backend : NodeBackend net ctx.be)
    (nonzero : ∀ proposal : P, Proposal.hash proposal ≠ FixedBytes.zero 32)
    (authentic : ∀ m src, ctx.heard m src → Authentic net nodes m)
    (replies : ∀ msg src pp, nodes a = ctx.origin → ctx.heard msg src → msg.code = msgPreprepare → msg.decodePreprepare = some pp → checkMessage (nodes a) msgPreprepare pp.view = some .oldMessage → isOldBlock ctx.be pp src = true → Decided net nodes pp.view.sequence (Proposal.hash pp.proposal)) :
    NetInv net (Function.update nodes a d) := by
  have grows : Extends nodes (Function.update nodes a d) :=
    extends_update fun _ member => outputs_of_move move member
  have node := inv a correct
  have moved : NodeInv net (Function.update nodes a d) a := by
    refine ⟨?_, ?_, ?_, ?_, ?_, ?_, ?_⟩
    all_goals rw [Function.update_self]
    · rw [address_of_move move]
      exact node.address
    · rcases valSet_of_move move with same | ⟨last, same⟩
      · rw [same]
        exact node.validators
      · rw [same]
        exact backend.validators last
    · exact node.votes.move move backend.calm nonzero
    · have kept := node.core.move move
        (fun m src _ heard _ _ _ => authentic m src heard) (fun _ _ => trivial)
      exact kept.mono fun _ good => good.mono grows
    · intro src m queued
      rcases queued_of_move move queued with before | heard
      · exact (node.queued src m before).mono grows
      · exact (authentic m src heard).mono grows
    · intro sent member
      rcases sent_of_move move member with old | ⟨kind, sender, sentView, sentLock, _⟩
      · exact node.sent_mono grows sent old
      · refine ⟨sender.trans node.address, fun code => ?_⟩
        have different : ∀ other : UInt64, sent.msg.code = other → msgCommit ≠ other → False := by
          intro other same differ
          exact differ (code.symm.trans same)
        cases kind with
        | preprepare _ other | prepare _ other => exact (different _ other (by decide)).elim
        | roundChange other => exact (different _ other (by decide)).elim
        | commit sub _ decoded subject locked =>
          obtain ⟨pp, _, rfl⟩ := Option.map_eq_some_iff.mp subject
          exact ⟨_, decoded, Or.inl ⟨code, decoded, sentView.symm, sentLock.trans locked⟩⟩
        | oldCommit msg src pp _ decoded unmoved heard isPreprepare decodedPreprepare old known =>
          exact ⟨_, decoded, Or.inr ((replies msg src pp unmoved heard isPreprepare
            decodedPreprepare old known).mono grows)⟩
    · intro committed member
      rcases committed_of_move move member with old | ⟨held, view, _, quorum, _⟩
      · exact (node.backed committed old).mono grows
      · rw [view]
        exact (inv.backed_of_quorum correct held quorum).mono grows
  intro b correctB
  by_cases same : b = a
  · rw [same]
    exact moved
  · exact (inv b correctB).mono grows (Function.update_of_ne same _ _)

/-- The message of an event is authentic: it was just delivered, or the core
has kept it from a delivery. -/
theorem heard_authentic {be : Backend P} {event : Event P} (node : NodeInv net nodes a)
    (posted : Posted (nodes a) event) (delivered : Delivered net nodes event) {m : Message}
    {src : Address} (heard : Heard be (nodes a) event m src) : Authentic net nodes m := by
  cases event with
  | message payload =>
    have success := heard_message_iff.mp heard
    exact delivered m ((checkPayload_eq_ok_iff _ _ _ _ _).mp success).1
  | backlog source stored =>
    cases heard
    exact node.queued src m (Or.inr posted)
  | request | timeout | finalCommitted => cases heard

theorem NetInv.step {step : Address × Backend P × Event P} (inv : NetInv net nodes)
    (nonzero : ∀ proposal : P, Proposal.hash proposal ≠ FixedBytes.zero 32)
    (enabled : (networkSystem net).enabled nodes step) (replies : OldReplyDecided net nodes step) :
    NetInv net ((networkSystem net).next nodes step) := by
  obtain ⟨a, be, event⟩ := step
  obtain ⟨correct, backend, posted, delivered⟩ := enabled
  have heard : ∀ m src, Heard be (nodes a) event m src → Authentic net nodes m :=
    fun m src heard => heard_authentic (inv a correct) posted delivered heard
  let Inv : Core P → Prop := fun d =>
    NetInv net (Function.update nodes a d) ∧ Extends nodes (Function.update nodes a d)
  have kept : Inv (handleEvent be (nodes a) event) := by
    refine kept_by_moves Inv ?_ (handleEvent_moves be (nodes a) event) ?_
    · rintro d e move ⟨before, grows⟩
      have self : Function.update nodes a d a = d := Function.update_self a d nodes
      have overwrite : Function.update (Function.update nodes a d) a e =
          Function.update nodes a e := by
        rw [Function.update_idem]
      have stepped : Move (eventContext be (nodes a) event) (Function.update nodes a d a) e := by
        rw [self]
        exact move
      have after : NetInv net (Function.update (Function.update nodes a d) a e) := by
        refine before.move correct stepped backend nonzero
          (fun m src listened => (heard m src listened).mono grows) ?_
        intro msg src pp unmoved listened isPreprepare decoded old known
        rw [unmoved] at old
        exact (replies pp (oldReply_eq_some listened isPreprepare decoded old known)).mono grows
      refine ⟨overwrite ▸ after, ?_⟩
      intro b output member
      have earlier := grows b output member
      by_cases same : b = a
      · subst same
        rw [self] at earlier
        rw [Function.update_self]
        exact outputs_of_move move earlier
      · rw [Function.update_of_ne same] at earlier ⊢
        exact earlier
    · have unchanged : Function.update nodes a (nodes a) = nodes := Function.update_eq_self a nodes
      refine ⟨?_, ?_⟩
      · rw [unchanged]
        exact inv
      · rw [unchanged]
        exact fun _ _ member => member
  exact kept.1

theorem NetInv.start (initial : (networkSystem net).init nodes) : NetInv net nodes := by
  intro a correct
  obtain ⟨be, backend, started⟩ := initial a correct
  have silent := start_silent started
  obtain ⟨last, quiet⟩ := start_eq_some started
  refine ⟨quiet.address, ?_, VoteInv.start started, CoreInv.start started, ?_, ?_, ?_⟩
  · obtain ⟨block, same⟩ := valSet_of_start started
    rw [same]
    exact backend.validators block
  · intro src m queued
    rcases quiet.queued src m queued with (⟨backlog, prio, found, _⟩ | posted) | none
    · rw [show (freshCore be a last).backlogs = ∅ from rfl, Std.ExtTreeMap.getElem?_empty] at found
      cases found
    · cases posted
    · exact none.elim
  · intro sent member
    cases silent _ member
  · intro committed member
    cases silent _ member

/-- In a run in which old PRE-PREPARE messages are answered only for blocks
already committed at their sequence, no two correct validators commit different
blocks at one sequence. -/
theorem agreement_of_decided_replies (net : Membership) {nodes : Nodes P}
    (nonzero : ∀ proposal : P, Proposal.hash proposal ≠ FixedBytes.zero 32)
    (reached : Reachable (networkSystem net) (OldReplyDecided net) nodes) :
    Agreement net nodes := by
  have inv : NetInv net nodes :=
    reached.invariant (NetInv net) (fun _ => NetInv.start)
      (fun _ _ before enabled replies => before.step nonzero enabled replies)
  exact inv.agreement

end Network

/-! ## Concrete runs -/

theorem numberedBlock_hash_ne_zero (b : NumberedBlock) :
    Proposal.hash b ≠ FixedBytes.zero 32 := by
  intro zero
  have last : (bytesToHash (bigBytes b.number ++ [b.tag, 1])).data.getLast? = some 1 := by
    rw [bytesToHash, FixedBytes.setBytes, List.getLast?_append, List.getLast?_drop,
      if_neg (by simp only [List.length_append, List.length_cons, List.length_nil]; omega)]
    simp
  rw [show bytesToHash (bigBytes b.number ++ [b.tag, 1]) = FixedBytes.zero 32 from zero] at last
  exact absurd last (by decide)

def sampleNet : Membership where
  validators := sampleSet.validators
  faulty := {sampleAddress 1}
  bound := 1
  distinct := by decide +kernel
  size := by decide +kernel
  few := by decide +kernel

def genesisBlock : NumberedBlock := ⟨0, 0⟩
def firstBlock : NumberedBlock := ⟨1, 7⟩

/-- A step at a validator whose chain may already hold block 1. -/
structure SampleStep where
  node : UInt8
  grown : Bool
  event : Event NumberedBlock

def SampleStep.label (s : SampleStep) : Address × Backend NumberedBlock × Event NumberedBlock :=
  (sampleAddress s.node,
    if s.grown = true then
      chainBackend (sampleAddress s.node) (firstBlock, sampleAddress 1) [(genesisBlock, zeroAddress)]
    else chainBackend (sampleAddress s.node) (genesisBlock, zeroAddress) [],
    s.event)

def propose (b : NumberedBlock) : Event NumberedBlock :=
  .message (samplePayload 1 1 msgPreprepare
    (.list [View.encodeRLP ⟨0, 1⟩, .list [writeUint b.number, .bytes [b.tag]]]) [])

def prepareFrom (i : UInt8) (b : NumberedBlock) : Event NumberedBlock :=
  .message (samplePayload i i msgPrepare (Subject.encodeRLP ⟨⟨0, 1⟩, Proposal.hash b⟩) [])

def commitFrom (i : UInt8) (b : NumberedBlock) (committedSeal : Bytes) : Event NumberedBlock :=
  .message (samplePayload i i msgCommit (Subject.encodeRLP ⟨⟨0, 1⟩, Proposal.hash b⟩)
    committedSeal)

def commitsFirst : List SampleStep :=
  [⟨2, false, propose firstBlock⟩, ⟨3, false, propose firstBlock⟩,
    ⟨2, false, prepareFrom 1 firstBlock⟩, ⟨2, false, prepareFrom 2 firstBlock⟩,
    ⟨2, false, prepareFrom 3 firstBlock⟩, ⟨3, false, prepareFrom 1 firstBlock⟩,
    ⟨3, false, prepareFrom 2 firstBlock⟩, ⟨3, false, prepareFrom 3 firstBlock⟩,
    ⟨2, false, commitFrom 1 firstBlock []⟩,
    ⟨2, false, commitFrom 2 firstBlock (plainSig (sampleAddress 2))⟩,
    ⟨2, false, commitFrom 3 firstBlock (plainSig (sampleAddress 3))⟩]

/-- Validator 4 is given the genesis block as the proposal for sequence 1; once
validators 2 and 3 are at sequence 2 they answer the same proposal as an old
one, and validator 4 counts the answers. -/
def commitsGenesis : List SampleStep :=
  [⟨4, false, propose genesisBlock⟩, ⟨2, true, .finalCommitted⟩, ⟨3, true, .finalCommitted⟩,
    ⟨2, true, propose genesisBlock⟩, ⟨3, true, propose genesisBlock⟩,
    ⟨4, false, commitFrom 1 genesisBlock []⟩, ⟨4, false, commitFrom 2 genesisBlock []⟩,
    ⟨4, false, commitFrom 3 genesisBlock []⟩]

def sampleNodes : Nodes NumberedBlock := fun a =>
  enterNewRound (chainBackend a (genesisBlock, zeroAddress) []) (newCore a sampleSet) zeroAddress
    ⟨0, 1⟩ false

theorem chainBackend_nodeBackend (self : Address) (head : NumberedBlock × Address)
    (older : List (NumberedBlock × Address)) :
    NodeBackend sampleNet (chainBackend self head older) where
  calm := ⟨fun _ => rfl, fun _ _ => rfl⟩
  validators := fun _ => .refl _

theorem label_nodeBackend (s : SampleStep) : NodeBackend sampleNet s.label.2.1 := by
  unfold SampleStep.label
  split
  · exact chainBackend_nodeBackend _ _ _
  · exact chainBackend_nodeBackend _ _ _

theorem sampleNodes_init : (networkSystem sampleNet).init sampleNodes := by
  intro a _
  exact ⟨chainBackend a (genesisBlock, zeroAddress) [], chainBackend_nodeBackend _ _ _, rfl⟩

/-- The step may be taken: an external event, at a correct validator, with a
message that its sender did send. -/
def mayTake (nodes : Nodes NumberedBlock)
    (step : Address × Backend NumberedBlock × Event NumberedBlock) : Bool :=
  decide (step.1 ∈ sampleNet.validators ∧ step.1 ∉ sampleNet.faulty) && !isBacklog step.2.2 &&
    match step.2.2 with
    | .message payload => (Message.ofPayload payload).all fun m =>
      decide (m.address ∈ sampleNet.faulty) || (nodes m.address).outputs.any fun output =>
        match output with
        | .broadcast sent => decide (sent.msg = m)
        | _ => false
    | _ => true

theorem mayTake_sound {nodes : Nodes NumberedBlock} {s : SampleStep}
    (checked : mayTake nodes s.label = true) :
    (networkSystem sampleNet).enabled nodes s.label := by
  rw [mayTake, Bool.and_eq_true, Bool.and_eq_true, decide_eq_true_eq] at checked
  obtain ⟨⟨correct, external⟩, delivered⟩ := checked
  refine ⟨correct, label_nodeBackend s, posted_of_external external, ?_⟩
  cases event : s.label.2.2 with
  | message payload =>
    rw [event] at delivered
    intro m decoded correctSender
    simp only [decoded, Option.all_some, Bool.or_eq_true, decide_eq_true_eq] at delivered
    rcases delivered with faulty | found
    · exact absurd faulty correctSender.2
    · obtain ⟨output, member, same⟩ := List.any_eq_true.mp found
      split at same
      · rename_i sent
        exact ⟨sent, of_decide_eq_true same, member⟩
      · cases same
  | _ => trivial

def answersNone (nodes : Nodes NumberedBlock)
    (step : Address × Backend NumberedBlock × Event NumberedBlock) : Bool :=
  mayTake nodes step && (oldReply step.2.1 (nodes step.1) step.2.2).isNone

def commitsHash (c : Core NumberedBlock) (sequence : Nat) (b : NumberedBlock) : Bool :=
  c.outputs.any fun output =>
    match output with
    | .commit committed => decide (committed.view.sequence = sequence ∧ committed.proposal = b)
    | _ => false

theorem decided_of_commitsHash {nodes : Nodes NumberedBlock} {a : Address} {sequence : Nat}
    {b : NumberedBlock}
    (correct : sampleNet.Correct a) (found : commitsHash (nodes a) sequence b = true) :
    Decided sampleNet nodes sequence (Proposal.hash b) := by
  obtain ⟨output, member, same⟩ := List.any_eq_true.mp found
  split at same
  · rename_i committed
    obtain ⟨sameSequence, rfl⟩ := of_decide_eq_true same
    exact ⟨a, committed, correct, member, sameSequence, rfl⟩
  · cases same

theorem agreement_commitsFirst : ∃ nodes : Nodes NumberedBlock,
    Reachable (networkSystem sampleNet) (OldReplyDecided sampleNet) nodes ∧
      Decided sampleNet nodes 1 (Proposal.hash firstBlock) ∧ Agreement sampleNet nodes := by
  obtain ⟨nodes, reached, committed⟩ : ∃ nodes, Reachable (networkSystem sampleNet)
      (OldReplyDecided sampleNet) nodes ∧
      commitsHash (nodes (sampleAddress 2)) 1 firstBlock = true := by
    refine @exists_run _ _ _ _ answersNone _ (some sampleNodes)
      (commitsFirst.map SampleStep.label)
      (fun _ found => Option.some.inj found ▸ sampleNodes_init) ?_
      (by decide +kernel)
    intro label member nodes answers
    obtain ⟨s, _, rfl⟩ := List.mem_map.mp member
    rw [answersNone, Bool.and_eq_true] at answers
    refine ⟨mayTake_sound answers.1, ?_⟩
    intro pp answered
    rw [answered] at answers
    cases answers.2
  exact ⟨nodes, reached, decided_of_commitsHash ⟨by decide +kernel, by decide +kernel⟩ committed,
    agreement_of_decided_replies sampleNet numberedBlock_hash_ne_zero reached⟩

/-- Validator 2 commits block 1 and validator 4 the genesis block, both at
sequence 1. -/
theorem old_replies_break_agreement : ∃ nodes : Nodes NumberedBlock,
    Reachable (networkSystem sampleNet) (fun _ _ => True) nodes ∧
      ¬ Agreement sampleNet nodes := by
  obtain ⟨nodes, reached, committed⟩ : ∃ nodes, Reachable (networkSystem sampleNet)
      (fun _ _ => True) nodes ∧ (commitsHash (nodes (sampleAddress 2)) 1 firstBlock &&
        commitsHash (nodes (sampleAddress 4)) 1 genesisBlock) = true := by
    refine @exists_run _ _ _ _ mayTake _ (some sampleNodes)
      ((commitsFirst ++ commitsGenesis).map SampleStep.label)
      (fun _ found => Option.some.inj found ▸ sampleNodes_init) ?_
      (by decide +kernel)
    intro label member nodes takes
    obtain ⟨s, _, rfl⟩ := List.mem_map.mp member
    exact ⟨mayTake_sound takes, trivial⟩
  rw [Bool.and_eq_true] at committed
  refine ⟨nodes, reached, fun agreement => ?_⟩
  have same := agreement 1 _ _
    (decided_of_commitsHash ⟨by decide +kernel, by decide +kernel⟩ committed.1)
    (decided_of_commitsHash ⟨by decide +kernel, by decide +kernel⟩ committed.2)
  exact absurd same (by decide +kernel)

end Linkeye.Dbft.Network
